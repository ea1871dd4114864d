import KeyInstall.Json.Fault

/-!
# Readers

A reader takes a value off the front of a text and leaves a shorter text. The
proof that it does so travels with it, so that a reader of many items, given a
reader of one, needs no bound from outside: it stops because the text ends.

`readEnclosed` reads the items of a container, for lists and objects alike;
`readSeparator` passes from an item to what is after it, and `readColon` from a
key to its value.
-/

namespace KeyInstall.Json

/-- Takes a value off the front of a text. -/
structure Reader (α : Type) where
  run : List Char → Except Fault (α × List Char)
  /-- Something is taken. -/
  shorter : ∀ {text rest : List Char} {value : α},
    run text = .ok (value, rest) → rest.length < text.length

/-! ## Layout -/

/-- The characters that may stand between tokens. -/
def isLayout (c : Char) : Bool := c == ' ' || c == '\n' || c == '\r' || c == '\t'

/-- The text from its next token on. -/
def skipLayout (text : List Char) : List Char := text.dropWhile isLayout

theorem length_skipLayout (text : List Char) :
    (skipLayout text).length ≤ text.length :=
  (List.dropWhile_sublist _).length_le

/-! ## Colons -/

/-- The text after the colon between a key and its value. -/
def readColon (text : List Char) : Except Fault (List Char) :=
  match skipLayout text with
  | [] => .error ⟨.endOfObject, .before []⟩
  | c :: rest => if c = ':' then .ok rest else .error ⟨.expectedColon, .before (c :: rest)⟩

theorem length_readColon {text rest : List Char} (read : readColon text = .ok rest) :
    rest.length < text.length := by
  have layout := length_skipLayout text
  unfold readColon at read
  split at read
  · simp at read
  · rename_i next
    rw [next, List.length_cons] at layout
    split at read
    · simp only [Except.ok.injEq] at read
      rw [← read]
      omega
    · simp at read

/-! ## Enclosed items -/

/-- How a container is closed, and the causes when it is not. -/
structure Enclosure where
  close : Char
  /-- The text ends inside the container. -/
  unclosed : Cause
  /-- An item is followed by neither a comma nor the closing bracket. -/
  unseparated : Cause

/-- What stands after an item. -/
inductive Separator where
  /-- Another item is to come. -/
  | comma
  /-- The container is closed. -/
  | close
  deriving DecidableEq, Repr

/-- The text of the next item, or the text after the container. -/
def readSeparator (enclosure : Enclosure) (text : List Char) :
    Except Fault (Separator × List Char) :=
  match skipLayout text with
  | [] => .error ⟨enclosure.unclosed, .before []⟩
  | c :: tail =>
    if c = enclosure.close then .ok (.close, tail)
    else if c = ',' then
      if (skipLayout tail).head? = some enclosure.close then
        .error ⟨.trailingComma, .before (skipLayout tail)⟩
      else .ok (.comma, skipLayout tail)
    else .error ⟨enclosure.unseparated, .before (c :: tail)⟩

theorem length_readSeparator {enclosure : Enclosure} {text rest : List Char}
    {separator : Separator} (read : readSeparator enclosure text = .ok (separator, rest)) :
    rest.length < text.length := by
  have layout := length_skipLayout text
  unfold readSeparator at read
  split at read
  · cases read
  · rename_i c tail next
    have after := length_skipLayout tail
    rw [next, List.length_cons] at layout
    split at read
    · cases read
      omega
    · split at read
      · split at read
        · cases read
        · cases read
          omega
      · cases read

/-- Items, at least one, up to the closing bracket. -/
def readItems {α : Type} (item : Reader α) (enclosure : Enclosure) (text : List Char) :
    Except Fault (List α × List Char) :=
  match found : item.run text with
  | .error fault => .error fault
  | .ok (value, rest) =>
    match separated : readSeparator enclosure rest with
    | .error fault => .error fault
    | .ok (.close, last) => .ok ([value], last)
    | .ok (.comma, next) =>
      have : next.length < text.length :=
        Nat.lt_trans (length_readSeparator separated) (item.shorter found)
      (readItems item enclosure next).map fun (values, last) => (value :: values, last)
termination_by text.length

/-- The items of a container: the text follows the opening bracket. -/
def readEnclosed {α : Type} (item : Reader α) (enclosure : Enclosure) (text : List Char) :
    Except Fault (List α × List Char) :=
  match skipLayout text with
  | [] => .error ⟨enclosure.unclosed, .before []⟩
  | c :: rest =>
    if c = enclosure.close then .ok ([], rest) else readItems item enclosure (c :: rest)

theorem length_readItems {α : Type} {item : Reader α} {enclosure : Enclosure}
    {text rest : List Char} {values : List α}
    (read : readItems item enclosure text = .ok (values, rest)) :
    rest.length < text.length := by
  fun_induction readItems item enclosure text generalizing values with
  | case1 => cases read
  | case2 => cases read
  | case3 text value more found last separated =>
    cases read
    exact Nat.lt_trans (length_readSeparator separated) (item.shorter found)
  | case4 text value more found next separated shorter ih =>
    obtain ⟨inner, innerRead, -⟩ := mapValue_eq_ok_iff.mp read
    exact Nat.lt_trans (ih innerRead) shorter

theorem length_readEnclosed {α : Type} {item : Reader α} {enclosure : Enclosure}
    {text rest : List Char} {values : List α}
    (read : readEnclosed item enclosure text = .ok (values, rest)) :
    rest.length < text.length := by
  have layout := length_skipLayout text
  unfold readEnclosed at read
  split at read
  · simp at read
  · rename_i c tail next
    rw [next] at layout
    split at read
    · simp only [Except.ok.injEq, Prod.mk.injEq] at read
      rw [List.length_cons, read.2] at layout
      omega
    · have := length_readItems read
      omega

end KeyInstall.Json
