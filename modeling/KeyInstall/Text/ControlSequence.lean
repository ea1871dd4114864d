/-!
# Text without control sequences

A terminal takes an escape character and what follows it as an order: to change
a colour, to move, to name its window. Where a text is not shown by a terminal,
such control sequences are left out of it, and so are the other characters that
show nothing.
-/

namespace KeyInstall.Text

/-! ## Characters -/

/-- A control character that moves on within the text: a tab, or the end of a
line or page. -/
def isBreak (c : Char) : Bool := c == '\t' || c == '\n' || c == '\x0c' || c == '\r'

/-- Whether a character is shown, or leaves room. -/
def isShown (c : Char) : Bool := isBreak c || (' ' ≤ c && c != '\x7f')

/-- A mark that stands in front of the end of a control sequence. -/
def isMark (c : Char) : Bool := ' ' ≤ c && c ≤ '/'

/-- A digit or a sign of a parameter. -/
def isParameter (c : Char) : Bool := '0' ≤ c && c ≤ '?'

/-- A character that ends the parameters of a control sequence. -/
def isFinal (c : Char) : Bool := '@' ≤ c && c ≤ '~'

/-- Whether the end of a message to the terminal, the byte `9C`, is one of the
bytes of a character. -/
def endsMessage (c : Char) : Bool := (String.utf8EncodeChar c).contains 0x9C

/-! ## Control sequences -/

/-- Where a text stands among control sequences. -/
inductive Control where
  /-- Outside of them. -/
  | outside
  /-- After an escape character. -/
  | escape
  /-- After an escape character and marks. -/
  | marks
  /-- After an escape character and a bracket, until the final character. -/
  | parameters
  /-- In a command to the system, which a bell ends. -/
  | command
  /-- In front of a message to a device. -/
  | device
  /-- Among the parameters of a message to a device. -/
  | deviceParameters
  /-- Among the marks in front of a message to a device. -/
  | deviceMarks
  /-- In a message. -/
  | message
  deriving DecidableEq, Repr

namespace Control

/-- Where a character leads that neither starts a sequence nor breaks one off. -/
def advance (control : Control) (c : Char) : Control :=
  match control with
  | .outside => .outside
  | .escape =>
    if c = '[' then .parameters
    else if c = ']' then .command
    else if c = 'P' then .device
    else if c = 'X' ∨ c = '^' ∨ c = '_' then .message
    else if isMark c then .marks
    else if isParameter c ∨ isFinal c then .outside
    else .escape
  | .marks => if isParameter c ∨ isFinal c then .outside else .marks
  | .parameters => if isFinal c then .outside else .parameters
  | .command => if c = '\x07' then .outside else .command
  | .device =>
    if isMark c then .deviceMarks
    else if isParameter c then .deviceParameters
    else if isFinal c then .message
    else .device
  | .deviceParameters =>
    if isMark c then .deviceMarks
    else if '<' ≤ c ∧ c ≤ '~' then .message
    else .deviceParameters
  | .deviceMarks => if isParameter c ∨ isFinal c then .message else .deviceMarks
  | .message => if endsMessage c then .outside else .message

/-- Where a character leads. An escape character starts a new sequence, and two
control characters break one off, wherever they stand. -/
def next (control : Control) (c : Char) : Control :=
  if c = '\x1b' then .escape
  else if c = '\x18' ∨ c = '\x1a' then .outside
  else control.advance c

/-- Whether a character is shown. Tabs and the ends of lines are, in a sequence
that is no message, too. -/
def shows (control : Control) (c : Char) : Bool :=
  match control with
  | .outside => isShown c
  | .escape | .marks | .parameters => isBreak c
  | .command | .device | .deviceParameters | .deviceMarks | .message => false

end Control

/-! ## Leaving them out -/

/-- The characters of a text that are shown, from a place among control
sequences on. What follows a tab or the end of a line is shown with it, within a
sequence too, which goes on at the next character that cannot be shown, or ends
at one beyond ASCII. -/
def shownFrom (control : Control) (afterBreak : Bool) : List Char → List Char
  | [] => []
  | c :: rest =>
    if afterBreak ∧ isShown c then
      c :: shownFrom (if c.toNat < 128 then control else .outside) true rest
    else if control.shows c then c :: shownFrom (control.next c) true rest
    else shownFrom (control.next c) false rest

/-- The text without its control sequences and the other characters that show
nothing. -/
def withoutControls (text : List Char) : List Char := shownFrom .outside false text

end KeyInstall.Text
