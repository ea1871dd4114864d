import KeyInstall.Document
import KeyInstall.Proofs.Json.Grammar.Completeness
import KeyInstall.Proofs.Json.Grammar.Soundness

/-!
# The texts of documents

A text is accepted as a document only if the grammar of JSON derives it, with at
most 127 containers around one another. All such texts are accepted, as what the
grammar says that they stand for, but for those in which an object begins with
the key that makes it a number.
-/

namespace KeyInstall.Document

open Json (Nests Untagged normalExponent)
open Json.Grammar

/-- How a text is accepted as a document. -/
structure AcceptsJson (path : Path) (text : String) : Prop where
  sound : ∀ document, parse path text = .ok document →
    ∃ tree, Derives text.toList tree ∧ Nests 127 tree
  complete : ∀ tree, Derives text.toList tree → Nests 127 tree → Untagged tree →
    parse path text = .ok ⟨path, tree.meaning⟩
  /-- The numbers in what a text stands for have the text of their tokens. -/
  numbers : ∀ token number, NumberToken token number → number.text = normalExponent token

/-- Texts are accepted as the grammar has them, whatever the path. -/
theorem parse_accepts_json (path : Path) (text : String) : AcceptsJson path text where
  sound document accepted := by
    unfold parse at accepted
    split at accepted
    · cases accepted
    · rename_i root read
      exact derives_of_parse read
  complete tree derived nests untagged := by
    have read := parse_of_derives derived nests untagged
    rw [parse, read]
  numbers _ _ derived := text_of_numberToken derived

/-- Numbers with an exponent and with a sign, layout, and one key in two
spellings. -/
def variedText : String := "[1E5 ,\x7b\"a\":-0,\"\\u0061\":\"\\uD83D\\uDE00\"\x7d]"

/-- The members of the object in it. -/
def variedMembers : List Member :=
  [⟨[], ['a'], [], ['-', '0'], "a", .number ⟨true, ['0'], none, none⟩⟩,
    ⟨[], "\\u0061".toList, [], '"' :: ("\\uD83D\\uDE00".toList ++ ['"']), "a", .string "😀"⟩]

/-- What is written in it. -/
def variedTree : Json :=
  .array [.number ⟨false, ['1'], none, some ⟨false, ['5']⟩⟩,
    .object (variedMembers.map Member.field)]

theorem derives_variedText : Derives variedText.toList variedTree := by
  have digits : ∀ d : Char, d.isDigit = true → Json.AreDigits [d] := by
    intro d digit
    exact ⟨List.cons_ne_nil _ _, by simpa using digit⟩
  have large : NumberToken ['1', 'E', '5'] ⟨false, ['1'], none, some ⟨false, ['5']⟩⟩ :=
    @NumberToken.mk false ['1'] ['E', '5'] none _ (.inr ⟨digits '1' rfl, by decide⟩) (by simp)
      (.unsigned (.inr rfl) (digits '5' rfl))
  have zero : NumberToken ['-', '0'] ⟨true, ['0'], none, none⟩ :=
    @NumberToken.mk true ['0'] [] none _ (.inl rfl) (by simp) .none
  have plainKey : StringBody ['a'] "a".toList :=
    .plain (by decide) (by decide) (by decide) .nil
  have unit : HexUnit ['0', '0', '6', '1'] 'a'.toNat :=
    @HexUnit.mk '0' '0' '6' '1' 0 0 6 1 (.inl rfl) (.inl rfl) (.inl rfl) (.inl rfl)
  have escapedKey : StringBody "\\u0061".toList "a".toList := .escape (.unit unit) .nil
  have high : HexUnit ['D', '8', '3', 'D'] 0xD83D :=
    @HexUnit.mk 'D' '8' '3' 'D' 13 8 3 13 (.inr rfl) (.inr rfl) (.inr rfl) (.inr rfl)
  have low : HexUnit ['D', 'E', '0', '0'] 0xDE00 :=
    @HexUnit.mk 'D' 'E' '0' '0' 13 14 0 0 (.inr rfl) (.inr rfl) (.inr rfl) (.inr rfl)
  have face : StringBody "\\uD83D\\uDE00".toList "😀".toList :=
    .escape (.pair high low (by decide) (by decide) (by decide) (by decide) rfl) .nil
  have members : Derives ('{' :: (separated (variedMembers.map Member.chars) ++ ['}']))
      (.object (variedMembers.map Member.field)) := by
    refine .object (List.cons_ne_nil _ _) ?_ ?_
    · simp only [variedMembers, List.forall_mem_cons]
      exact ⟨⟨blanks_nil, plainKey, blanks_nil⟩, ⟨blanks_nil, escapedKey, blanks_nil⟩,
        List.forall_mem_nil _⟩
    · simp only [variedMembers, List.forall_mem_cons]
      exact ⟨.number zero, .string face, List.forall_mem_nil _⟩
  have spaced : Derives ['1', 'E', '5', ' '] (.number ⟨false, ['1'], none, some ⟨false, ['5']⟩⟩) :=
    .padded blanks_nil (.number large) (List.forall_mem_singleton.mpr (by decide))
  have items := Derives.array (List.cons_ne_nil (_, _) [(_, _)])
    (List.forall_mem_cons.mpr ⟨spaced, List.forall_mem_cons.mpr ⟨members, List.forall_mem_nil _⟩⟩)
  exact items

/-- The last value of the key stands for both members. -/
theorem parse_accepts_json_variedText :
    parse ⟨"mcp.json"⟩ variedText = .ok ⟨⟨"mcp.json"⟩, .array [
      .number ⟨false, ['1'], none, some ⟨false, ['5']⟩⟩, .object [("a", .string "😀")]]⟩ := by
  have nests : Nests 127 variedTree := by
    refine .array ?_
    simp only [List.forall_mem_cons]
    refine ⟨.number _, .object ?_, List.forall_mem_nil _⟩
    simp only [variedMembers, List.map_cons, List.forall_mem_cons]
    exact ⟨.number _, .string _, List.forall_mem_nil _⟩
  have untagged : Untagged variedTree := by
    refine .array ?_
    simp only [List.forall_mem_cons]
    refine ⟨.number _, .object (by decide) ?_, List.forall_mem_nil _⟩
    simp only [variedMembers, List.map_cons, List.forall_mem_cons]
    exact ⟨.number _, .string _, List.forall_mem_nil _⟩
  exact (parse_accepts_json _ _).complete _ derives_variedText nests untagged

end KeyInstall.Document
