import Mathlib.Data.List.Forall2
import KeyInstall.Json.Basic
import KeyInstall.Json.Tagged
import KeyInstall.Proofs.Json.Token
import KeyInstall.Proofs.Table

/-!
# What becomes of tokens

A text that is read and written again keeps its tokens but for two things, which
`respelled` does to them: the exponent of a number is given its normal form, and
an object with the tag of a number becomes that number. Keys that come twice in
an object are another matter (`distinctKeys`): of these, one is lost.
-/

namespace KeyInstall.Json

/-! ## Exponents -/

/-- What follows the letter of an exponent, with a sign in front. -/
def signed : List Char → List Char
  | [] => ['+']
  | c :: rest => if c = '-' ∨ c = '+' then c :: rest else '+' :: c :: rest

/-- The characters of a number with the letter of its exponent in lower case and
the sign after it, even if that is a plus. -/
def normalExponent : List Char → List Char
  | [] => []
  | c :: rest => if c = 'e' ∨ c = 'E' then 'e' :: signed rest else c :: normalExponent rest

/-! ## Tokens of a text -/

/-- An object with the tag of a number. -/
def taggedTokens (digits : String) : List Token :=
  [.mark .openObject, .string numberTag, .mark .colon, .string digits, .mark .closeObject]

/-- What is left of tokens when the text is read and written again. -/
def respelled : List Token → List Token
  | [] => []
  | .number text :: rest => .number (normalExponent text) :: respelled rest
  | .mark .openObject :: .string key :: .mark .colon :: .string text :: .mark .closeObject :: rest =>
    if key = numberTag then .number (normalExponent text.toList) :: respelled rest
    else .mark .openObject :: .string key :: .mark .colon :: .string text ::
      .mark .closeObject :: respelled rest
  | token :: rest => token :: respelled rest

/-- No key comes twice in an object. `seen` has the keys of the objects that are
open, the innermost first; they are compared when the object is closed. -/
def distinctKeys : List Token → List (List String) → Bool
  | [], _ => true
  | .mark .openObject :: rest, seen => distinctKeys rest ([] :: seen)
  | .mark .closeObject :: rest, keys :: seen => decide keys.Nodup && distinctKeys rest seen
  | .string key :: .mark .colon :: rest, keys :: seen =>
    distinctKeys rest ((keys ++ [key]) :: seen)
  | _ :: rest, seen => distinctKeys rest seen

/-! ## Tokens of a value -/

/-- Tokens with commas between them. -/
def separated : List (List Token) → List Token
  | [] => []
  | first :: others => first ++ others.flatMap (.mark .comma :: ·)

mutual

/-- The tokens of a value. -/
def tokens : Json → List Token
  | .null => [.word ['n', 'u', 'l', 'l']]
  | .bool true => [.word ['t', 'r', 'u', 'e']]
  | .bool false => [.word ['f', 'a', 'l', 's', 'e']]
  | .number value => [.number value.text]
  | .string text => [.string text]
  | .array items => .mark .openList :: (separated (tokensOfItems items) ++ [.mark .closeList])
  | .object fields =>
    .mark .openObject :: (separated (tokensOfFields fields) ++ [.mark .closeObject])

/-- The tokens of each item. -/
def tokensOfItems : List Json → List (List Token)
  | [] => []
  | item :: items => tokens item :: tokensOfItems items

/-- The tokens of each field. -/
def tokensOfFields : List (String × Json) → List (List Token)
  | [] => []
  | (key, value) :: fields => (.string key :: .mark .colon :: tokens value) :: tokensOfFields fields

end

/-- The tokens of a field. -/
def fieldTokens (field : String × Json) : List Token :=
  .string field.1 :: .mark .colon :: tokens field.2

theorem tokensOfItems_eq (items : List Json) : tokensOfItems items = items.map tokens := by
  induction items with
  | nil => rfl
  | cons item items ih => rw [tokensOfItems, ih, List.map_cons]

theorem tokensOfFields_eq (fields : List (String × Json)) :
    tokensOfFields fields = fields.map fieldTokens := by
  induction fields with
  | nil => rfl
  | cons field fields ih => rw [tokensOfFields, ih, List.map_cons, fieldTokens]

/-! ## Respelling token by token -/

/-- A token that is no number and begins no object stays. -/
theorem respelled_cons {token : Token} (number : ∀ text, token ≠ .number text)
    (object : token ≠ .mark .openObject) (rest : List Token) :
    respelled (token :: rest) = token :: respelled rest := by
  rw [respelled]
  · exact number
  · rintro _ _ _ rfl
    exact absurd rfl object

/-- An object begins as it did, unless its first key is the tag. -/
theorem respelled_openObject {rest : List Token} (untagged : rest.head? ≠ some (.string numberTag)) :
    respelled (.mark .openObject :: rest) = .mark .openObject :: respelled rest := by
  by_cases whole : ∃ key text more,
      rest = .string key :: .mark .colon :: .string text :: .mark .closeObject :: more
  · -- An object with one field looks like a tagged number, but for its key.
    obtain ⟨key, text, more, rfl⟩ := whole
    have ordinary : key ≠ numberTag := by simpa using untagged
    rw [respelled, if_neg ordinary]
    simp only [respelled_cons, ne_eq, reduceCtorEq, not_false_eq_true, implies_true,
      Token.mark.injEq]
  · rw [respelled]
    · simp
    · rintro key text more - rfl
      exact whole ⟨key, text, more, rfl⟩

theorem length_respelled (source : List Token) : (respelled source).length ≤ source.length := by
  fun_induction respelled source with
  | case1 => simp
  | case2 text rest ih => simpa using ih
  | case3 text rest ih =>
    simp only [List.length_cons]
    omega
  | case4 key text rest _ ih => simpa using ih
  | case5 token rest _ _ ih => simpa using ih

/-- Nothing is there that would be respelled: every exponent has its normal form,
and no number is tagged. -/
structure Plain (source : List Token) : Prop where
  numbers : ∀ text, .number text ∈ source → normalExponent text = text
  untagged : ∀ digits, ¬ taggedTokens digits <:+: source

/-- What is plain is so behind its first token, unless that begins a tagged number. -/
theorem plain_cons_iff {token : Token} {rest : List Token}
    (other : ∀ digits more, token :: rest ≠ taggedTokens digits ++ more) :
    Plain (token :: rest) ↔
      (∀ text, token = .number text → normalExponent text = text) ∧ Plain rest := by
  have behind : ∀ digits, taggedTokens digits <:+: token :: rest ↔
      taggedTokens digits <:+: rest := by
    intro digits
    rw [List.infix_cons_iff, or_iff_right]
    rintro ⟨more, same⟩
    exact other digits more same.symm
  constructor
  · rintro ⟨numbers, untagged⟩
    refine ⟨?_, ?_, ?_⟩
    · rintro text rfl
      exact numbers text List.mem_cons_self
    · exact fun text member => numbers text (List.mem_cons_of_mem _ member)
    · exact fun digits => (behind digits).not.mp (untagged digits)
  · rintro ⟨first, numbers, untagged⟩
    refine ⟨?_, fun digits => (behind digits).not.mpr (untagged digits)⟩
    intro text member
    rcases List.mem_cons.mp member with same | member
    · exact first text same.symm
    · exact numbers text member

/-- The only tokens that do not stay are those that are not plain. -/
theorem respelled_eq_self_iff (source : List Token) : respelled source = source ↔ Plain source := by
  fun_induction respelled source with
  | case1 => exact ⟨fun _ => ⟨by simp, by simp [taggedTokens]⟩, fun _ => rfl⟩
  | case2 text rest ih =>
    rw [plain_cons_iff (by simp [taggedTokens])]
    simp [ih]
  | case3 text rest ih =>
    have shorter := length_respelled rest
    constructor
    · intro same
      have lengths := congrArg List.length same
      simp only [List.length_cons] at lengths
      omega
    · intro plain
      exact absurd ⟨[], rest, rfl⟩ (plain.untagged text)
  | case4 key text rest ordinary ih =>
    -- The other four tokens begin no object, so no tag can follow them at once.
    rw [plain_cons_iff (by simp [taggedTokens, ordinary])]
    iterate 4 rw [plain_cons_iff (by simp [taggedTokens])]
    simp [ih]
  | case5 token rest number object ih =>
    have other : ∀ digits more, token :: rest ≠ taggedTokens digits ++ more := by
      intro digits more same
      simp only [taggedTokens, List.cons_append, List.nil_append, List.cons.injEq] at same
      exact object _ _ _ same.1 same.2
    have first : ∀ text, token = .number text → normalExponent text = text :=
      fun text same => (number text same).elim
    rw [plain_cons_iff other, and_iff_right first]
    simp [ih]

/-- A string that is no key is passed over. -/
theorem distinctKeys_string {rest : List Token} (value : rest.head? ≠ some (.mark .colon))
    (text : String) (seen : List (List String)) :
    distinctKeys (.string text :: rest) seen = distinctKeys rest seen := by
  rw [distinctKeys]
  · simp
  · simp
  · rintro _ _ _ _ - - rfl
    simp at value

/-! ## Parts of a text -/

/-- Whatever follows them but a colon, the tokens `source` are respelled as
`target`, and the keys that have been seen after them are as `advance` says. -/
def Respells (source target : List Token)
    (advance : List (List String) → List (List String)) : Prop :=
  ∀ more seen, more.head? ≠ some (.mark .colon) → distinctKeys (source ++ more) seen = true →
    distinctKeys more (advance seen) = true ∧ respelled (source ++ more) = target ++ respelled more

variable {source target source' target' : List Token}
  {advance advance' : List (List String) → List (List String)}

theorem Respells.nil : Respells [] [] id := by
  intro more seen _ distinct
  exact ⟨distinct, rfl⟩

theorem Respells.append (first : Respells source target advance)
    (second : Respells source' target' advance')
    (value : source'.head? ≠ some (.mark .colon)) :
    Respells (source ++ source') (target ++ target') (advance' ∘ advance) := by
  intro more seen noColon distinct
  have noColon' : (source' ++ more).head? ≠ some (.mark .colon) := by
    cases source' with
    | nil => exact noColon
    | cons token source' => exact value
  rw [List.append_assoc] at distinct
  obtain ⟨distinct', respelled'⟩ := first _ seen noColon' distinct
  obtain ⟨distinct'', respelled''⟩ := second more _ noColon distinct'
  exact ⟨distinct'', by rw [List.append_assoc, respelled', respelled'', List.append_assoc]⟩

/-- The marks that neither open nor close an object stay, and tell of no keys. -/
theorem Respells.mark {mark : Mark} (opens : mark ≠ .openObject) (closes : mark ≠ .closeObject)
    (rest : Respells source target advance) :
    Respells (.mark mark :: source) (.mark mark :: target) advance := by
  intro more seen noColon distinct
  rw [List.cons_append, distinctKeys] at distinct
  · obtain ⟨distinct', respelled'⟩ := rest more seen noColon distinct
    refine ⟨distinct', ?_⟩
    rw [List.cons_append, respelled_cons (by simp) (by simpa using opens), respelled']
    rfl
  · simpa using opens
  · rintro _ _ _ same
    exact closes (Token.mark.inj same)
  · simp

/-- One more key of the innermost object. -/
def addKey (key : String) : List (List String) → List (List String)
  | [] => []
  | keys :: seen => (keys ++ [key]) :: seen

/-- A key stays, and is seen. -/
theorem Respells.key (key : String) (value : Respells source target advance) :
    Respells (.string key :: .mark .colon :: source) (.string key :: .mark .colon :: target)
      (advance ∘ addKey key) := by
  intro more seen noColon distinct
  have distinct : distinctKeys (source ++ more) (addKey key seen) = true := by
    cases seen with
    | nil => simpa [distinctKeys, addKey] using distinct
    | cons keys seen => simpa [distinctKeys, addKey] using distinct
  obtain ⟨distinct', respelled'⟩ := value more _ noColon distinct
  refine ⟨distinct', ?_⟩
  rw [List.cons_append, List.cons_append, respelled_cons (by simp) (by simp),
    respelled_cons (by simp) (by simp), respelled']
  rfl

/-! ## Parts with commas between them -/

section

variable {α : Type} {target : α → List Token}
  {advance : α → List (List String) → List (List String)} {parts : List α}
  {sources : List (List Token)}

/-- A comma comes before every part but the first. -/
theorem commas_ne_colon (sources : List (List Token)) :
    (sources.flatMap (Token.mark .comma :: ·)).head? ≠ some (.mark .colon) := by
  cases sources <;> simp

theorem respells_commas
    (each : List.Forall₂ (fun part source => Respells source (target part) (advance part))
      parts sources) :
    Respells (sources.flatMap (Token.mark .comma :: ·))
      ((parts.map target).flatMap (Token.mark .comma :: ·))
      fun seen => parts.foldl (fun seen part => advance part seen) seen := by
  induction each with
  | nil => exact Respells.nil
  | cons first _ ih =>
    rw [List.map_cons, List.flatMap_cons, List.flatMap_cons]
    exact (first.append ih (commas_ne_colon _)).mark (by simp) (by simp)

theorem respells_separated
    (each : List.Forall₂ (fun part source => Respells source (target part) (advance part))
      parts sources) :
    Respells (separated sources) (separated (parts.map target))
      fun seen => parts.foldl (fun seen part => advance part seen) seen := by
  cases each with
  | nil => exact Respells.nil
  | cons first others => exact first.append (respells_commas others) (commas_ne_colon _)

end

/-! ## Spellings of a value -/

/-- The tokens `source` are respelled as those of a value. -/
def Spells (value : Json) (source : List Token) : Prop := Respells source (tokens value) id

theorem respells_word (text : List Char) : Respells [.word text] [.word text] id := by
  intro more seen _ distinct
  exact ⟨by simpa [distinctKeys] using distinct, respelled_cons (by simp) (by simp) more⟩

theorem spells_number {text : List Char} {number : Number}
    (normal : normalExponent text = number.text) : Spells (.number number) [.number text] := by
  intro more seen _ distinct
  refine ⟨by simpa [distinctKeys] using distinct, ?_⟩
  rw [List.singleton_append, respelled, normal, tokens, List.singleton_append]

theorem spells_string (text : String) : Spells (.string text) [.string text] := by
  intro more seen noColon distinct
  rw [List.singleton_append, distinctKeys_string noColon] at distinct
  rw [List.singleton_append, respelled_cons (by simp) (by simp), tokens, List.singleton_append]
  exact ⟨distinct, rfl⟩

theorem spells_tagged {digits : String} {number : Number}
    (normal : normalExponent digits.toList = number.text) :
    Spells (.number number) (taggedTokens digits) := by
  intro more seen _ distinct
  refine ⟨by simpa [taggedTokens, distinctKeys] using distinct, ?_⟩
  rw [taggedTokens, tokens, ← normal]
  simp [respelled]

theorem spells_array {items : List Json} {sources : List (List Token)}
    (each : List.Forall₂ Spells items sources) :
    Spells (.array items) (.mark .openList :: (separated sources ++ [.mark .closeList])) := by
  have closed : Respells [.mark .closeList] [.mark .closeList] id :=
    Respells.nil.mark (by simp) (by simp)
  -- Items tell of no keys.
  have still : (fun seen : List (List String) => items.foldl (fun seen _ => id seen) seen) = id := by
    funext seen
    exact List.foldl_fixed items
  have whole := ((respells_separated each).append closed (by simp)).mark
    (show Mark.openList ≠ .openObject by simp) (by simp)
  rwa [still, ← tokensOfItems_eq] at whole

/-- The tokens of a field: its key, a colon and a spelling of its value. -/
def SpellsField (field : String × Json) (source : List Token) : Prop :=
  ∃ inner, source = .string field.1 :: .mark .colon :: inner ∧ Spells field.2 inner

theorem foldl_addKey (fields : Table String Json) (keys : List String)
    (seen : List (List String)) :
    fields.foldl (fun seen field => addKey field.1 seen) (keys :: seen) =
      (keys ++ Table.keys fields) :: seen := by
  induction fields generalizing keys with
  | nil => simp [Table.keys]
  | cons field fields ih =>
    rw [List.foldl_cons, addKey, ih]
    simp [Table.keys]

theorem spells_object {fields : List (String × Json)} {sources : List (List Token)}
    (untagged : (Table.keys fields).head? ≠ some numberTag)
    (each : List.Forall₂ SpellsField fields sources) :
    Spells (.object (Table.ofSettings fields))
      (.mark .openObject :: (separated sources ++ [.mark .closeObject])) := by
  have fieldsRespell : List.Forall₂ (fun field source =>
      Respells source (fieldTokens field) (addKey field.1)) fields sources := by
    refine each.imp ?_
    rintro field source ⟨inner, rfl, spells⟩
    exact Respells.key field.1 spells
  have first : ∀ more, (separated sources ++ Token.mark .closeObject :: more).head? ≠
      some (.string numberTag) := by
    intro more
    cases each with
    | nil => simp [separated]
    | cons spelled _ =>
      obtain ⟨inner, rfl, -⟩ := spelled
      simpa [separated, Table.keys] using untagged
  intro more seen noColon distinct
  simp only [List.cons_append, List.append_assoc, List.nil_append, distinctKeys] at distinct ⊢
  -- The keys of the fields are compared at the closing bracket, so the table keeps them all.
  obtain ⟨closing, kept⟩ := respells_separated fieldsRespell _ _ (by simp) distinct
  simp only [foldl_addKey] at closing
  rw [distinctKeys, Bool.and_eq_true, decide_eq_true_eq, List.nil_append] at closing
  refine ⟨closing.2, ?_⟩
  rw [respelled_openObject (first more), kept, respelled_cons (by simp) (by simp),
    Table.ofSettings_eq_self closing.1, tokens, tokensOfFields_eq]
  simp

end KeyInstall.Json
