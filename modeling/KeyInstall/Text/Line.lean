/-!
# Lines of a text

A line ends at a line feed, or at a carriage return that a line feed follows. A
carriage return alone ends no line.
-/

namespace KeyInstall.Text

/-- Whether a line ends at a character, in front of the others. -/
def endsLine (c : Char) (rest : List Char) : Bool :=
  c == '\n' || (c == '\r' && rest.head? == some '\n')

/-- The first line of a text, without what ends it. -/
def firstLine : List Char → List Char
  | [] => []
  | c :: rest => if endsLine c rest then [] else c :: firstLine rest

end KeyInstall.Text
