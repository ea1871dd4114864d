import Mathlib.Data.List.DropRight
import KeyInstall.Proofs.Json.Enclosed

/-!
# Tokens

The tokens of a text, taken one after the other without regard to what they say
together: marks, strings with their escapes undone, and numbers and words
character by character. Two texts with the same tokens differ in their layout and
in the spelling of their strings alone.

`Lexes text taken rest` says that `taken` are the tokens before `rest`. There is
one statement for each kind of token, and `Lexes.trans` puts them together.
-/

namespace KeyInstall.Json

/-! ## Kinds of tokens -/

/-- What stands around values and between them. -/
inductive Mark where
  | comma
  | colon
  | openList
  | closeList
  | openObject
  | closeObject
  deriving DecidableEq, Repr

/-- The mark that a character is. -/
def Mark.of? (c : Char) : Option Mark :=
  if c = ',' then some .comma
  else if c = ':' then some .colon
  else if c = '[' then some .openList
  else if c = ']' then some .closeList
  else if c = '{' then some .openObject
  else if c = '}' then some .closeObject
  else none

/-- One token of a text. -/
inductive Token where
  | mark (mark : Mark)
  /-- The characters between quotes, with their escapes undone. -/
  | string (text : String)
  | number (text : List Char)
  | word (text : List Char)
  deriving DecidableEq, Repr

/-- The characters of numbers and words: all that have no other meaning. -/
def isBare (c : Char) : Bool := !isLayout c && (Mark.of? c).isNone && c != '"'

/-- A number or a word, by its first character. -/
def Token.ofBare (text : List Char) : Token :=
  if text.head?.any Number.starts then .number text else .word text

/-! ## Taking tokens -/

/-- The token that begins with `c`, and what follows it. -/
def readToken (c : Char) (rest : List Char) : Option (Token × List Char) :=
  match Mark.of? c with
  | some mark => some (.mark mark, rest)
  | none =>
    if c = '"' then
      match Quoted.decode rest with
      | .ok (characters, more) => some (.string (String.ofList characters), more)
      | .error _ => none
    else some (.ofBare (c :: rest.takeWhile isBare), rest.dropWhile isBare)

theorem length_readToken {c : Char} {text rest : List Char} {token : Token}
    (found : readToken c text = some (token, rest)) : rest.length ≤ text.length := by
  unfold readToken at found
  split at found
  · simp_all
  · split at found
    · split at found
      · rename_i read
        have := Quoted.length_decode read
        simp only [Option.some.injEq, Prod.mk.injEq] at found
        rw [← found.2]
        omega
      · simp at found
    · simp only [Option.some.injEq, Prod.mk.injEq] at found
      rw [← found.2]
      exact (List.dropWhile_sublist _).length_le

/-- With its layout, a token makes the text shorter. -/
theorem length_of_next {c : Char} {text rest more : List Char} {token : Token}
    (next : skipLayout text = c :: rest) (found : readToken c rest = some (token, more)) :
    more.length < text.length := by
  have layout := length_skipLayout text
  have shorter := length_readToken found
  rw [next, List.length_cons] at layout
  omega

/-- The tokens of a text, if its strings can be read. -/
def tokens? (text : List Char) : Option (List Token) :=
  match next : skipLayout text with
  | [] => some []
  | c :: rest =>
    match found : readToken c rest with
    | none => none
    | some (token, more) =>
      have := length_of_next next found
      (tokens? more).map (token :: ·)
termination_by text.length

theorem tokens?_of_nil {text : List Char} (next : skipLayout text = []) :
    tokens? text = some [] := by
  rw [tokens?]
  split <;> simp_all

theorem tokens?_of_cons {c : Char} {text rest : List Char} (next : skipLayout text = c :: rest) :
    tokens? text =
      (readToken c rest).bind fun (token, more) => (tokens? more).map (token :: ·) := by
  rw [tokens?]
  split
  · simp_all
  · rename_i again
    rw [next, List.cons.injEq] at again
    obtain ⟨rfl, rfl⟩ := again
    split <;> simp_all

/-- Layout in front makes no difference. -/
theorem tokens?_skipLayout (text : List Char) : tokens? (skipLayout text) = tokens? text := by
  have again : skipLayout (skipLayout text) = skipLayout text := List.dropWhile_idempotent _ _
  cases next : skipLayout text with
  | nil => rw [tokens?_of_nil next, tokens?_of_nil rfl]
  | cons c rest => rw [tokens?_of_cons next, tokens?_of_cons (next ▸ again)]

/-- The tokens `taken` are at the front of a text, before `rest`. -/
def Lexes (text : List Char) (taken : List Token) (rest : List Char) : Prop :=
  tokens? text = (tokens? rest).map (taken ++ ·)

variable {text rest last : List Char} {taken more : List Token}

theorem Lexes.trans (first : Lexes text taken rest) (second : Lexes rest more last) :
    Lexes text (taken ++ more) last := by
  rw [Lexes, first, second, Option.map_map]
  congr 1
  funext others
  exact (List.append_assoc taken more others).symm

/-- The tokens before layout are all. -/
theorem Lexes.tokens?_eq (lexes : Lexes text taken rest) (ends : skipLayout rest = []) :
    tokens? text = some taken := by
  rw [lexes, tokens?_of_nil ends, Option.map_some, List.append_nil]

theorem lexes_skipLayout (text : List Char) : Lexes text [] (skipLayout text) := by
  simp [Lexes, tokens?_skipLayout]

theorem lexes_layout {line : List Char} (blank : AreLayout line) (text : List Char) :
    Lexes (line ++ text) [] text := by
  rw [Lexes, ← tokens?_skipLayout, skipLayout_append blank, tokens?_skipLayout]
  simp

/-! ## One token -/

theorem lexes_token {c : Char} {token : Token} (next : skipLayout text = c :: rest)
    (found : readToken c rest = some (token, last)) : Lexes text [token] last := by
  rw [Lexes, tokens?_of_cons next, found]
  rfl

theorem lexes_mark {c : Char} {mark : Mark} (next : skipLayout text = c :: rest)
    (found : Mark.of? c = some mark) : Lexes text [.mark mark] rest :=
  lexes_token next (by rw [readToken, found])

theorem not_isLayout_of_mark {c : Char} {mark : Mark} (found : Mark.of? c = some mark) :
    isLayout c = false := by
  cases layout : isLayout c with
  | false => rfl
  | true =>
    simp only [isLayout, Bool.or_eq_true, beq_iff_eq] at layout
    rcases layout with ((rfl | rfl) | rfl) | rfl <;> cases found

/-- A mark at the front is the first token. -/
theorem lexes_mark_cons {c : Char} {mark : Mark} (found : Mark.of? c = some mark)
    (rest : List Char) : Lexes (c :: rest) [.mark mark] rest :=
  lexes_mark (skipLayout_cons (not_isLayout_of_mark found) rest) found

theorem lexes_string {characters : List Char} (next : skipLayout text = '"' :: rest)
    (found : Quoted.decode rest = .ok (characters, last)) :
    Lexes text [.string (String.ofList characters)] last :=
  lexes_token next (by simp [readToken, Mark.of?, found])

/-- What may follow a number or a word: nothing that goes on with it. -/
def EndsBare (rest : List Char) : Prop := ∀ c ∈ rest.head?, isBare c = false

/-- Nothing but characters of numbers and words, and at least one. -/
def AreBare (characters : List Char) : Prop :=
  characters ≠ [] ∧ ∀ c ∈ characters, isBare c = true

theorem lexes_bare {characters : List Char} (bare : AreBare characters) (ends : EndsBare rest) :
    Lexes (characters ++ rest) [.ofBare characters] rest := by
  obtain ⟨nonempty, all⟩ := bare
  cases characters with
  | nil => exact absurd rfl nonempty
  | cons c characters =>
    have first := all c List.mem_cons_self
    have others := fun d member => all d (List.mem_cons_of_mem c member)
    simp only [isBare, Bool.and_eq_true, Bool.not_eq_true', Option.isNone_iff_eq_none,
      bne_iff_ne, ne_eq] at first
    obtain ⟨⟨notLayout, notMark⟩, notQuote⟩ := first
    refine lexes_token (skipLayout_cons notLayout _) ?_
    simp [readToken, notMark, notQuote, takeWhile_append_stop others ends,
      dropWhile_append_stop others ends]

end KeyInstall.Json
