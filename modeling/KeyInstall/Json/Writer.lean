import KeyInstall.Json.Basic
import KeyInstall.Json.Number
import KeyInstall.Json.Quoted

/-!
# Writing a JSON text

One writer for every layout: a `Layout` says what stands before an item on a
line of its own and what follows the colon after a key. `Layout.pretty` puts
each item on a line, indented by two blanks a level; `Layout.compact` puts
nothing anywhere. Empty containers are written without layout.
-/

namespace KeyInstall.Json

/-- What is written between the tokens of a text. -/
structure Layout where
  /-- Before an item, and before a closing bracket, at a depth. -/
  line : Nat → List Char
  /-- After a colon. -/
  gap : List Char

/-- An item a line, two blanks a level, and a blank after each colon. -/
def Layout.pretty : Layout :=
  ⟨fun depth => '\n' :: List.replicate (2 * depth) ' ', [' ']⟩

/-- Nothing between tokens. -/
def Layout.compact : Layout := ⟨fun _ => [], []⟩

mutual

/-- The text of a value inside `depth` containers. -/
def write (layout : Layout) (depth : Nat) : Json → List Char
  | .null => ['n', 'u', 'l', 'l']
  | .bool true => ['t', 'r', 'u', 'e']
  | .bool false => ['f', 'a', 'l', 's', 'e']
  | .number value => value.text
  | .string text => Quoted.quote text
  | .array [] => ['[', ']']
  | .array (item :: items) =>
    '[' :: (layout.line (depth + 1) ++ (write layout (depth + 1) item ++
      (writeItems layout (depth + 1) items ++ (layout.line depth ++ [']']))))
  | .object [] => ['{', '}']
  | .object ((key, value) :: fields) =>
    '{' :: (layout.line (depth + 1) ++ (Quoted.quote key ++ (':' :: (layout.gap ++
      (write layout (depth + 1) value ++
        (writeFields layout (depth + 1) fields ++ (layout.line depth ++ ['}'])))))))

/-- The items after the first, each with the comma before it. -/
def writeItems (layout : Layout) (depth : Nat) : List Json → List Char
  | [] => []
  | item :: items =>
    ',' :: (layout.line depth ++ (write layout depth item ++ writeItems layout depth items))

/-- The fields after the first, each with the comma before it. -/
def writeFields (layout : Layout) (depth : Nat) : List (String × Json) → List Char
  | [] => []
  | (key, value) :: fields =>
    ',' :: (layout.line depth ++ (Quoted.quote key ++ (':' :: (layout.gap ++
      (write layout depth value ++ writeFields layout depth fields)))))

end

/-- The text of a value, an item a line, without a line feed at its end. -/
def render (value : Json) : String := String.ofList (write .pretty 0 value)

/-- The text of a value on one line, without blanks between tokens. -/
def renderCompact (value : Json) : String := String.ofList (write .compact 0 value)

end KeyInstall.Json
