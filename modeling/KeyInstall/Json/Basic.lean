import KeyInstall.Table

/-!
# JSON values

A value as the configuration file holds it: objects keep the order of their
keys, and a number keeps its digits, of any size, so that nothing is lost
between reading a document and writing it again.

`Json.same` compares values as data: the order of an object's keys does not
count, the digits of a number do.
-/

namespace KeyInstall

namespace Json

/-- The power of ten that a number ends in. -/
structure Exponent where
  negative : Bool
  digits : List Char
  deriving DecidableEq, Repr

/-- A number as it is written: its sign, the digits before and after the point,
and the exponent. -/
structure Number where
  negative : Bool
  whole : List Char
  fraction : Option (List Char)
  exponent : Option Exponent
  deriving DecidableEq, Repr

end Json

/-- A JSON value. -/
inductive Json where
  | null
  | bool (value : Bool)
  | number (value : Json.Number)
  | string (text : String)
  | array (items : List Json)
  | object (fields : List (String × Json))
  deriving Repr

namespace Json

/-! ## Parts of a value -/

/-- The fields of an object. -/
def fields? : Json → Option (Table String Json)
  | .object fields => some fields
  | _ => none

/-- The value of a key of an object. -/
def field? (key : String) (value : Json) : Option Json :=
  value.fields?.bind (Table.get? key)

/-! ## Equality as data -/

mutual

/-- Equality that ignores the order of an object's keys. -/
def same : Json → Json → Bool
  | .null, .null => true
  | .bool a, .bool b => a == b
  | .number a, .number b => a == b
  | .string a, .string b => a == b
  | .array xs, .array ys => sameItems xs ys
  | .object xs, .object ys => xs.length == ys.length && sameFields xs ys
  | _, _ => false

/-- Equality item by item. -/
def sameItems : List Json → List Json → Bool
  | [], [] => true
  | x :: xs, y :: ys => same x y && sameItems xs ys
  | _, _ => false

/-- Each key on the left has an equal value on the right. -/
def sameFields : List (String × Json) → Table String Json → Bool
  | [], _ => true
  | (key, value) :: rest, ys =>
    (match Table.get? key ys with
      | some other => same value other
      | none => false) && sameFields rest ys

end

end Json

end KeyInstall
